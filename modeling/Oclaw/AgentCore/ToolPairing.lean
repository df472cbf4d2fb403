import Oclaw.AgentCore.AgentSteps
import Mathlib.Data.List.Induction

/-!
# Pairing of provider requests

The requests of an agent carry its whole history, so they are paired as long as the
history is. The tool loop answers every call of an assistant message in order; what
breaks the history is the loop detector: a warning is pushed between a call and its
result, and a critical verdict leaves the run with calls unanswered. Nothing mends
the history afterwards. So a request is paired exactly when no call was flagged
before it was sent.
-/

namespace Oclaw.AgentCore

open Oclaw.Lib Oclaw.ToolsCore

variable {W : Type} {O : Outside W} {A : AgentSetup} {log : List AgentEvent}
  {e : AgentEvent} {t : Tape} {m : ChatMessage}

/-! ## §1  Requests and flags of a log -/

def AgentEvent.isFlag : AgentEvent → Bool
  | .flagged .. => true
  | _ => false

/-- Neither a request nor a flag. -/
def AgentEvent.isInert : AgentEvent → Bool
  | .request _ | .flagged .. => false
  | _ => true

/-- The loop detector has flagged a call. -/
def flagged (log : List AgentEvent) : Bool := log.any AgentEvent.isFlag

/-- A request is paired if and only if nothing was flagged before it. -/
def RequestsSound (log : List AgentEvent) : Prop :=
  ∀ pre r post, log = pre ++ .request r :: post → (Paired r.messages ↔ flagged pre = false)

theorem flagged_snoc (log : List AgentEvent) (e : AgentEvent) :
    flagged (log ++ [e]) = (flagged log || e.isFlag) := by
  simp [flagged]

theorem flagged_inert (he : e.isInert = true) : flagged (log ++ [e]) = flagged log := by
  have hflag : e.isFlag = false := by
    cases e <;> first | rfl | cases he
  rw [flagged_snoc, hflag, Bool.or_false]

theorem RequestsSound.snoc (h : RequestsSound log)
    (he : ∀ r, e = .request r → (Paired r.messages ↔ flagged log = false)) :
    RequestsSound (log ++ [e]) := by
  intro pre r post heq
  induction post using List.reverseRecOn with
  | nil =>
      obtain ⟨rfl, hlast⟩ := List.append_inj' heq rfl
      exact he r (List.cons.inj hlast).1
  | append_singleton post e' _ =>
      rw [← List.cons_append, ← List.append_assoc] at heq
      obtain ⟨hlog, -⟩ := List.append_inj' heq rfl
      exact h pre r post hlog

theorem RequestsSound.inert (h : RequestsSound log) (he : e.isInert = true) :
    RequestsSound (log ++ [e]) := by
  apply h.snoc
  rintro r rfl
  cases he

theorem requestsSound_nil : RequestsSound [] := by
  intro pre r post h
  simp at h

/-! ## §2  The tape -/

theorem record_history (codec : JsonCodec) (saved : Bool) :
    (t.record codec saved m).history = t.history ++ [m] := by
  cases saved <;> rfl

theorem flagged_push : flagged (t.push m).log = flagged t.log := flagged_inert rfl

theorem flagged_record (codec : JsonCodec) (saved : Bool) :
    flagged (t.record codec saved m).log = flagged t.log := by
  cases saved with
  | false => exact flagged_push
  | true => exact flagged_push.trans (flagged_inert rfl)

theorem RequestsSound.record (h : RequestsSound t.log) (codec : JsonCodec) (saved : Bool) :
    RequestsSound (t.record codec saved m).log := by
  cases saved with
  | false => exact h.inert rfl
  | true => exact RequestsSound.inert (h.inert rfl) rfl

/-- The results that a history still owes; `none` when it is broken. -/
def owed (history : List ChatMessage) : Option (List String) :=
  toolPairing.owedAfter [] history

theorem owed_snoc (history : List ChatMessage) (m : ChatMessage) :
    owed (history ++ [m]) = (owed history).bind (fun ks => toolPairing.settle ks m) := by
  unfold owed
  rw [Pairing.owedAfter_append]
  cases toolPairing.owedAfter [] history with
  | none => rfl
  | some ks =>
      rw [Option.bind_some, Option.bind_some, Pairing.owedAfter_cons]
      cases toolPairing.settle ks m <;> rfl

/-- A message that is no tool result breaks a history that owes results. -/
theorem owed_snoc_broken {history : List ChatMessage} (h : owed history ≠ some [])
    (hm : m.isTool = false) : owed (history ++ [m]) = none := by
  rw [owed_snoc]
  cases hks : owed history with
  | none => rfl
  | some ks =>
      cases ks with
      | nil => exact absurd hks h
      | cons k ks => exact Pairing.settle_interrupt (P := toolPairing) hm ks

theorem owed_snoc_entry {history : List ChatMessage} (h : owed history = some [])
    (hm : m.isTool = false) : owed (history ++ [m]) = some m.callIds := by
  rw [owed_snoc, h]
  exact Pairing.settle_entry (P := toolPairing) hm

theorem owed_snoc_result {history : List ChatMessage} {tc : ToolCall} {ks : List String}
    (h : owed history = some (tc.id :: ks)) (content : String) :
    owed (history ++ [toolResult tc content]) = some ks := by
  rw [owed_snoc, h]
  exact Pairing.settle_answer (P := toolPairing) rfl rfl ks

theorem owed_snoc_none {history : List ChatMessage} (h : owed history = none) :
    owed (history ++ [m]) = none := by
  rw [owed_snoc, h]
  rfl

/-- What the history owes in each phase. A flagged history is broken, or it was left
with calls unanswered and the next message breaks it. -/
def OwedIn (phase : Phase) (flag : Bool) (history : List ChatMessage) : Prop :=
  match phase with
  | .idle => if flag then owed history ≠ some [] else owed history = some []
  | .ready => owed history = if flag then none else some []
  | .owing tcs => owed history = if flag then none else some (tcs.map ToolCall.id)

structure PairingInv (x : Phase × Tape) : Prop where
  sound : RequestsSound x.2.log
  owes : OwedIn x.1 (flagged x.2.log) x.2.history

/-- A message that carries no call, while no results are owed, changes nothing. -/
theorem owed_plain {history : List ChatMessage} {flag : Bool}
    (h : owed history = if flag then none else some []) (hm : m.isTool = false)
    (hcalls : m.callIds = []) : owed (history ++ [m]) = if flag then none else some [] := by
  cases flag with
  | true => exact owed_snoc_none h
  | false =>
      have hentry := owed_snoc_entry h hm
      rw [hcalls] at hentry
      exact hentry

theorem owed_answered {history : List ChatMessage} {flag : Bool} {tc : ToolCall}
    {tcs : List ToolCall} (content : String)
    (h : owed history = if flag then none else some ((tc :: tcs).map ToolCall.id)) :
    owed (history ++ [toolResult tc content]) =
      if flag then none else some (tcs.map ToolCall.id) := by
  cases flag with
  | true => exact owed_snoc_none h
  | false => exact owed_snoc_result h content

/-! ## §3  Every step keeps the invariant -/

/-- No compaction, context guard, history limit or pruning is configured. -/
structure AgentSetup.Plain (A : AgentSetup) : Prop where
  noCompaction : A.compactionConfig = none
  noGuard : A.contextGuard = none
  noLimit : A.historyLimit = none
  noPruning : A.pruningConfig = none

theorem AgentSetup.Plain.prepareMessages_eq (hA : A.Plain) (history : List ChatMessage) :
    prepareMessages A history = history := by
  simp [prepareMessages, hA.noPruning, hA.noLimit]

theorem formatRecallContext_role {results : List RecallResult}
    (h : formatRecallContext results = some m) : m.role = .system ∧ m.toolCalls = none := by
  unfold formatRecallContext at h
  split at h
  · cases h
  · cases h
    exact ⟨rfl, rfl⟩

theorem pairingInv_step (hA : A.Plain) {x y : Phase × Tape} (hx : PairingInv x)
    (h : AgentStep O A x y) : PairingInv y := by
  obtain ⟨hsound, howes⟩ := hx
  cases h with
  | @input t text saved _ =>
      refine ⟨hsound.record O.codec saved, ?_⟩
      show owed _ = _
      rw [record_history, flagged_record]
      simp only [OwedIn] at howes
      split at howes
      · rename_i hflag
        rw [if_pos hflag]
        exact owed_snoc_broken howes rfl
      · rename_i hflag
        rw [if_neg hflag]
        exact owed_snoc_entry howes rfl
  | @recalled t results m hm =>
      obtain ⟨hrole, -⟩ := formatRecallContext_role hm
      refine ⟨hsound.inert rfl, ?_⟩
      show owed _ = _
      rw [flagged_push]
      apply owed_plain howes
      · simp [ChatMessage.isTool, hrole]
      · apply ChatMessage.callIds_of_not_assistant
        simp [hrole]
  | @request t r hr =>
      refine ⟨hsound.snoc ?_, ?_⟩
      · rintro r' heq
        cases heq
        rw [hr, hA.prepareMessages_eq]
        show toolPairing.Paired t.history ↔ _
        rw [Pairing.paired_iff_owedAfter, show toolPairing.owedAfter [] t.history = _ from howes]
        cases flagged t.log <;> simp
      · show owed t.history = if flagged (t.log ++ [.request r]) then none else some []
        rw [flagged_snoc, show AgentEvent.isFlag (.request r) = false from rfl, Bool.or_false]
        exact howes
  | summarize r hcfg =>
      rw [hA.noCompaction] at hcfg
      cases hcfg
  | compact history file hcfg =>
      rw [hA.noCompaction] at hcfg
      cases hcfg
  | @rewrite t history hshape =>
      refine ⟨hsound.inert rfl, ?_⟩
      show owed history = _
      rw [show flagged (t.rewrite history).log = flagged t.log from flagged_inert rfl,
        show owed history = owed t.history from owedAfter_congr_shape hshape]
      exact howes
  | @answer t content calls saved _ =>
      refine ⟨hsound.record O.codec saved, ?_⟩
      show owed _ = _
      rw [record_history, flagged_record]
      simp only [OwedIn] at howes
      cases hflag : flagged t.log with
      | true =>
          rw [hflag] at howes
          exact owed_snoc_none howes
      | false =>
          rw [hflag] at howes
          exact owed_snoc_entry howes rfl
  | @warn t tc tcs msg =>
      refine ⟨?_, ?_⟩
      · exact RequestsSound.inert (hsound.snoc (by simp)) rfl
      · show owed _ = _
        rw [flagged_push, show flagged (t.emit (.flagged tc .warning)).log = true by
          simp [Tape.emit, flagged_snoc, AgentEvent.isFlag]]
        -- The result of `tc` is still owed, so the warning is out of place.
        apply owed_snoc_broken _ rfl
        show owed t.history ≠ some []
        rw [show owed t.history = _ from howes]
        cases flagged t.log <;> simp
  | @refuse t tc tcs decision content _ =>
      refine ⟨RequestsSound.inert (hsound.inert rfl) rfl, ?_⟩
      show owed _ = _
      rw [flagged_push, show flagged (t.emit (.refused tc decision)).log = flagged t.log from
        flagged_inert rfl]
      exact owed_answered content howes
  | @execute t tc tcs content saved _ =>
      refine ⟨hsound.record O.codec saved, ?_⟩
      show owed _ = _
      rw [record_history, flagged_record]
      exact owed_answered content howes
  | @abort t tc tcs =>
      refine ⟨hsound.snoc (by simp), ?_⟩
      simp only [OwedIn, Tape.emit, flagged_snoc, AgentEvent.isFlag, Bool.or_true, if_true]
      rw [show owed t.history = _ from howes]
      cases flagged t.log <;> simp
  | next => exact ⟨hsound, howes⟩
  | @finish t =>
      refine ⟨hsound, ?_⟩
      simp only [OwedIn] at howes ⊢
      rw [howes]
      cases flagged t.log <;> simp

/-! ## §4  Whole conversations -/

/-- The agents a conversation can start with: a new one, or one initialized from a
transcript whose calls have different ids. -/
inductive Started (O : Outside W) (A : AgentSetup) : Live W → Prop where
  | fresh (gate : Option ApprovalGate) (w : W) (file : Option String) :
      Started O A (Live.new gate w file)
  | initialized (gate : Option ApprovalGate) (w : W) (file : Option String) :
      (allCallIds (Transcript.load O.codec file)).Nodup →
      Started O A ((Live.new gate w file).initializeAgent O A)

theorem owed_cons_system {history : List ChatMessage} (hm : m.role = .system) :
    owed (m :: history) = owed history := by
  unfold owed
  have hopens : m.callIds = [] := ChatMessage.callIds_of_not_assistant (by simp [hm])
  rw [Pairing.owedAfter_cons, Pairing.settle_entry (P := toolPairing)
    (by simp [toolPairing, ChatMessage.isTool, hm])]
  show toolPairing.owedAfter m.callIds history = _
  rw [hopens]

theorem owed_withSystemPrompt (prompt : Option String) (history : List ChatMessage) :
    owed (Live.withSystemPrompt prompt history) = owed history := by
  unfold Live.withSystemPrompt
  split
  · rfl
  · simp only
    split
    · split
      · rename_i hsystem
        rw [owed_cons_system rfl, owed_cons_system hsystem]
      · exact owed_cons_system rfl
    · exact owed_cons_system rfl

theorem owed_initialized (gate : Option ApprovalGate) (w : W) (file : Option String)
    (hids : (allCallIds (Transcript.load O.codec file)).Nodup) :
    owed ((Live.new gate w file).initializeAgent O A).tape.history = some [] := by
  unfold Live.initializeAgent
  generalize hloaded : (if A.hasTranscript then
    Transcript.load O.codec (Live.new gate w file).tape.file else []) = loaded
  by_cases hempty : loaded = []
  · simp only [hempty, if_true]
    cases A.config.systemPrompt with
    | none => rfl
    | some text => rfl
  · simp only [hempty, if_false]
    rw [owed_withSystemPrompt]
    apply Pairing.Paired.owedAfter_eq
    apply paired_repair
    cases htr : A.hasTranscript with
    | false =>
        rw [htr] at hloaded
        exact absurd hloaded.symm hempty
    | true =>
        rw [htr] at hloaded
        rw [← hloaded]
        exact hids

theorem Started.pairingInv {s : Live W} (h : Started O A s) : PairingInv (.idle, s.tape) := by
  cases h with
  | fresh gate w file => exact ⟨requestsSound_nil, rfl⟩
  | initialized gate w file hids =>
      exact ⟨requestsSound_nil, owed_initialized gate w file hids⟩

/-- **Tool-call pairing.** Whatever provider, executor and gate do, all requests of a
sequence of calls are paired if and only if no request is sent after the loop
detector has flagged a tool call. -/
theorem requests_paired_iff_sent_before_flag (O : Outside W) (A : AgentSetup) (hA : A.Plain)
    (s : Live W) (hs : Started O A s) (calls : List AgentCall) :
    (∀ r, .request r ∈ (s.session O A calls).tape.log → Paired r.messages) ↔
      ∀ pre r post, (s.session O A calls).tape.log = pre ++ .request r :: post →
        flagged pre = false := by
  have hinv : PairingInv (.idle, (s.session O A calls).tape) :=
    (Live.session_steps calls s).invariant (pairingInv_step hA) hs.pairingInv
  constructor
  · intro hall pre r post heq
    rw [← hinv.sound pre r post heq]
    apply hall r
    rw [heq]
    simp
  · intro hquiet r hr
    obtain ⟨pre, post, heq⟩ := List.append_of_mem hr
    exact (hinv.sound pre r post heq).mpr (hquiet pre r post heq)

/-! ## §5  Two conversations -/

/-- The messages of the requests of a log. -/
def sentMessages (log : List AgentEvent) : List (List ChatMessage) :=
  log.filterMap (fun e => match e with
    | .request r => some r.messages
    | _ => none)

theorem exists_request_of_mem {ms : List ChatMessage} (h : ms ∈ sentMessages log) :
    ∃ r, .request r ∈ log ∧ r.messages = ms := by
  obtain ⟨e, he, hms⟩ := List.mem_filterMap.mp h
  cases e with
  | request r => exact ⟨r, he, Option.some.inj hms⟩
  | _ => cases hms

/-- An outside world whose provider asks for the given calls first and then gives a
final answer; its state counts the provider's answers. -/
def askOnce (calls : List ToolCall) : Outside ℕ where
  chat := fun _ w =>
    (.ok ⟨[assistantMessage "" (if w = 0 then some calls else none)], none⟩, w + 1)
  execute := fun _ _ w => (.ok "done", w)
  availableTools := fun _ => []
  memoryRecall := fun _ _ _ w => ([], w)
  approvalTicket := fun w => (("request", 0), w)
  appends := fun w => (true, w)
  compactionMarker := fun _ w => ("", w)
  debugError := fun _ => "None"
  hashStr := fun s => UInt64.ofNat (s.toList.foldl (fun h c => h * 31 + c.toNat) 7)
  bpe := fun _ => none
  codec := ⟨fun _ => "", fun _ => none⟩

/-- An agent with default settings and without a transcript. -/
def plainSetup : AgentSetup where
  config := ⟨"gpt-4", some "You are helpful.", none, none, some 3, some 32⟩
  hasTranscript := false
  historyLimit := none
  compactionConfig := none
  pruningConfig := none
  recallConfig := none
  contextGuard := none

theorem plainSetup_plain : plainSetup.Plain := ⟨rfl, rfl, rfl, rfl⟩

/-- The same file is read `n` times, under different call ids. -/
def repeatedReads (n : ℕ) : List ToolCall :=
  (List.range n).map (fun i => ⟨"call_" ++ toString i, "function", ⟨"read_file", "a"⟩⟩)

/-- The agent after one `run_with_tools` in which the provider asks for the reads. -/
def afterReads (n : ℕ) : Live ℕ :=
  ((Live.new none 0 none).initializeAgent (askOnce (repeatedReads n)) plainSetup).session
    (askOnce (repeatedReads n)) plainSetup [.runWithTools "read it"]

theorem flagged_of_append {pre post : List AgentEvent} (h : flagged (pre ++ post) = false) :
    flagged pre = false := by
  unfold flagged at h ⊢
  rw [List.any_append, Bool.or_eq_false_iff] at h
  exact h.1

/-- Ten reads are within the limit: both requests are paired. -/
theorem ten_reads_paired :
    (sentMessages (afterReads 10).tape.log).length = 2 ∧
      ∀ r, .request r ∈ (afterReads 10).tape.log → Paired r.messages := by
  have hflag : flagged (afterReads 10).tape.log = false := by decide
  refine ⟨by decide, ?_⟩
  refine (requests_paired_iff_sent_before_flag _ _ plainSetup_plain _
    (.initialized none 0 none List.nodup_nil) _).mpr ?_
  intro pre r post heq
  have hlog : flagged (pre ++ .request r :: post) = false := by
    rw [← heq]
    exact hflag
  exact flagged_of_append hlog

/-- The eleventh read draws a warning between its call and its result: the next
request is not paired. -/
theorem eleventh_read_breaks_pairing :
    ((repeatedReads 11).map ToolCall.id).Nodup ∧
      ∃ r, .request r ∈ (afterReads 11).tape.log ∧ ¬ Paired r.messages := by
  refine ⟨by decide, ?_⟩
  have hbad : ∃ ms ∈ sentMessages (afterReads 11).tape.log, ¬ Paired ms := by decide
  obtain ⟨ms, hms, hnot⟩ := hbad
  obtain ⟨r, hr, rfl⟩ := exists_request_of_mem hms
  exact ⟨r, hr, hnot⟩

end Oclaw.AgentCore
